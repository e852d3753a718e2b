import Mathlib.Data.List.Nodup
import Subplans.Proofs.Merge.Meaning
import Subplans.Proofs.Outcome
import Subplans.Recovery.Plan

/-!
What a plan says of its query: the scans in it, and the conditions that join them.

`Plan.conditions` are the conditions that are to become joins: those that the joins of the plan state, and
those of its scans that the database refuses where they stand. They are read off the fields of the nodes, as are the
scans; the recovery finds the same (`Plan.ownTexts_eq`, `Scan.ofNode?_of_scanTarget`, `Scan.ofNode?_of_heapTarget`).
`Reads` tells which equalities of columns such a condition can be read as.
-/

namespace Subplans

open Recovery

-- A table that is read, and the conditions on its rows.
structure Scan where
  aliasName  : String
  table      : Nat
  conditions : List String

namespace Scan

-- The table that a node reads, and the name of it in the conditions. A node that reads an index for a bitmap has only
-- the name of the index, and its conditions use that of the table.
def target? (s : Schema) (operator : Operator) (o : Operation) : Option (Nat × String) :=
  if operator = .bitmapIndexScan then do
    let table ← s.tableOfIndex? (← o.index)
    some (table, (s.table table).name)
  else do
    let relation ← o.relation
    some (← s.table? relation, o.aliasName.getD relation)

-- The conditions on the rows that the node itself states.
def texts (s : Schema) (o : Operation) (table : Nat) (name : String) : List String :=
  (o.filter.toList ++ o.indexCondition.toList).flatMap fun text => Condition.filterConjuncts text name (s.table table)

-- The operations, if all of them read indexes for bitmaps.
def indexReads? (ps : List Plan) : Option (List Operation) :=
  if ps.all fun p => p.operation.operator? == some .bitmapIndexScan then some (ps.map Plan.operation) else none

-- The reads of indexes whose bitmaps a heap scan takes, be it from them or from an intersection of them.
def bitmapReads? : List Plan → Option (List Operation)
  | [] => some []
  | p :: rest => do
    let reads ← if p.operation.operator? = some .bitmapAnd then indexReads? p.inputs else indexReads? [p]
    some (reads ++ (← bitmapReads? rest))

-- The conditions of such a read, with the alias of the heap scan for the name of the table.
def bitmapTexts? (s : Schema) (table : Nat) (aliasName : String) (o : Operation) : Option (List String) := do
  let (indexTable, name) ← target? s .bitmapIndexScan o
  if indexTable = table then
    some ((texts s o table name).map fun text => String.ofList (Condition.requalify text.toList name aliasName))
  else none

-- The scan that a node makes with what stands below it.
def ofNode? (s : Schema) (operator : Operator) (o : Operation) (inputs : List Plan) : Option Scan := do
  let (table, aliasName) ← target? s operator o
  let reads ← if operator = .bitmapHeapScan then bitmapReads? inputs else some []
  let below ← reads.mapM (bitmapTexts? s table aliasName)
  some { aliasName, table, conditions := below.flatten ++ texts s o table aliasName }

section Targets

variable {s : Schema} {operator : Operator} {o : Operation} {inputs : List Plan} {reads : List Operation}
  {table : Nat} {name : String} {conditions : List String}

theorem texts_eq : texts s o table name = scanConditions s o table name := by
  simp [texts, scanConditions]

theorem target?_of_scanTarget (h : scanTarget s operator o = .ok (table, name)) :
    target? s operator o = some (table, name) := by
  unfold scanTarget at h
  unfold target?
  grind

theorem bitmapTexts?_of_indexConditions (h : indexConditions s table name o = .ok conditions) :
    bitmapTexts? s table name o = some conditions := by
  obtain ⟨⟨indexTable, indexName⟩, htarget, h⟩ := Outcome.bind_eq_ok.mp h
  dsimp only at h
  split at h
  case isTrue => cases h
  case isFalse heq =>
    have heq : indexTable = table := by simpa using heq
    rw [bitmapTexts?, target?_of_scanTarget htarget, Option.bind_eq_bind, Option.bind_some]
    simp only [heq, if_true, texts_eq]
    exact congrArg some (Outcome.pure_eq_ok.mp h)

theorem indexReads?_of_intersected (h : intersected inputs = some reads) : indexReads? inputs = some reads := by
  induction inputs generalizing reads
  case nil => exact h
  case cons p rest ih =>
    rw [intersected, List.mapM_cons] at h
    obtain ⟨o, ho, h⟩ := Option.bind_eq_some_iff.mp h
    obtain ⟨more, hmore, h⟩ := Option.bind_eq_some_iff.mp h
    cases h
    split at ho
    case isFalse => cases ho
    case isTrue hp =>
      cases ho
      have hrest := ih hmore
      rw [indexReads?] at hrest ⊢
      split at hrest
      case isFalse => cases hrest
      case isTrue hall =>
        cases hrest
        rw [if_pos (by rw [List.all_cons, hp, hall]; rfl)]
        rfl

theorem bitmapSource_after {operations rest} (h : bitmapSource.after operations rest = .scans reads) :
    ∃ more, bitmapSource rest = .scans more ∧ operations ++ more = reads := by
  unfold bitmapSource.after at h
  split at h
  case h_1 more hmore =>
    cases h
    exact ⟨more, hmore, rfl⟩
  case h_2 hother => exact absurd h (hother reads)

theorem bitmapReads?_of_bitmapSource (h : bitmapSource inputs = .scans reads) : bitmapReads? inputs = some reads := by
  induction inputs generalizing reads
  case nil =>
    rw [bitmapSource] at h
    cases h
    rfl
  case cons p rest ih =>
    rw [bitmapSource] at h
    split at h
    case h_1 => cases h
    case h_2 hp =>
      obtain ⟨more, hmore, rfl⟩ := bitmapSource_after h
      simp [bitmapReads?, indexReads?, hp, ih hmore]
    case h_3 hp =>
      split at h
      case h_1 operations hoperations =>
        obtain ⟨more, hmore, rfl⟩ := bitmapSource_after h
        simp [bitmapReads?, hp, indexReads?_of_intersected hoperations, ih hmore]
      case h_2 => cases h
    case h_4 => cases h

theorem ofNode?_of_scanTarget (hne : operator ≠ .bitmapHeapScan) (h : scanTarget s operator o = .ok (table, name)) :
    ofNode? s operator o inputs = some ⟨name, table, scanConditions s o table name⟩ := by
  rw [ofNode?, target?_of_scanTarget h]
  simp [hne, texts_eq]

theorem ofNode?_of_heapTarget (hsource : bitmapSource inputs = .scans reads)
    (h : heapTarget s o reads = .ok (table, name, conditions)) :
    ofNode? s .bitmapHeapScan o inputs = some ⟨name, table, conditions⟩ := by
  obtain ⟨⟨table, name⟩, htarget, h⟩ := Outcome.bind_eq_ok.mp h
  obtain ⟨below, hbelow, h⟩ := Outcome.bind_eq_ok.mp h
  cases h
  have hbelow : reads.mapM (bitmapTexts? s table name) = some below :=
    Outcome.mapM_eq_some.mpr ((Outcome.mapM_eq_ok.mp hbelow).imp fun _ _ => bitmapTexts?_of_indexConditions)
  rw [ofNode?, target?_of_scanTarget htarget]
  simp [bitmapReads?_of_bitmapSource hsource, hbelow, texts_eq]

end Targets

end Scan

namespace Plan

mutual

-- The scans of a plan, from left to right.
def scans (s : Schema) : Plan → List Scan
  | node o inputs =>
    match o.operator? with
    | none => []
    | some operator =>
      if operator.category == .scan then (Scan.ofNode? s operator o inputs).toList else scansAll s inputs

def scansAll (s : Schema) : List Plan → List Scan
  | [] => []
  | p :: rest => p.scans s ++ scansAll s rest

end

-- The conditions that a join states.
def ownTexts (o : Operation) : List String :=
  (o.joinFilter.toList ++ o.hashCondition.toList ++ o.mergeCondition.toList).flatMap fun text =>
    (Condition.conjuncts text.toList).map String.ofList

mutual

-- The conditions that the joins of a plan state.
def joinTexts : Plan → List String
  | node o inputs =>
    match o.operator? with
    | none => []
    | some operator =>
      match operator.category with
      | .scan => []
      | .join => joinTextsAll inputs ++ ownTexts o
      | _ => joinTextsAll inputs

def joinTextsAll : List Plan → List String
  | [] => []
  | p :: rest => p.joinTexts ++ joinTextsAll rest

end

-- Scans have nothing below them but the operands of heap scans, and operators that hand rows on have one input.
def Regular (p : Plan) : Prop :=
  ∀ o inputs, node o inputs ∈ p.subplans → ∀ operator, o.operator? = some operator →
    (operator.category = .scan → operator ≠ .bitmapHeapScan → inputs = []) ∧
    (operator.category = .passing → inputs.length = 1)

theorem ownTexts_eq {o : Operation} :
    ownTexts o = o.joinConditions.flatMap fun text => (Condition.conjuncts text.toList).map String.ofList := by
  have h : o.joinConditions = o.joinFilter.toList ++ o.hashCondition.toList ++ o.mergeCondition.toList := by
    rw [Operation.joinConditions]
    cases o.joinFilter <;> cases o.hashCondition <;> cases o.mergeCondition <;> rfl
  rw [ownTexts, h]

theorem scansAll_eq {s : Schema} {ps : List Plan} : scansAll s ps = ps.flatMap (scans s) := by
  induction ps
  case nil => rfl
  case cons p ps ih => rw [scansAll, ih, List.flatMap_cons]

theorem joinTextsAll_eq {ps : List Plan} : joinTextsAll ps = ps.flatMap joinTexts := by
  induction ps
  case nil => rfl
  case cons p ps ih => rw [joinTextsAll, ih, List.flatMap_cons]

theorem subplansAll_eq {ps : List Plan} : subplansAll ps = ps.flatMap subplans := by
  induction ps
  case nil => rfl
  case cons p ps ih => rw [subplansAll, ih, List.flatMap_cons]

theorem mem_subplans_self (p : Plan) : p ∈ p.subplans := by
  cases p
  case node => rw [subplans]; exact List.mem_cons_self

theorem mem_subplans_of_input {p q : Plan} {o : Operation} {inputs : List Plan} (hp : p ∈ inputs)
    (hq : q ∈ p.subplans) : q ∈ (node o inputs).subplans := by
  rw [subplans, subplansAll_eq]
  exact List.mem_cons_of_mem _ (List.mem_flatMap.mpr ⟨p, hp, hq⟩)

theorem Regular.input {p : Plan} {o : Operation} {inputs : List Plan} (h : (node o inputs).Regular)
    (hp : p ∈ inputs) : p.Regular :=
  fun o inputs hq => h o inputs (mem_subplans_of_input hp hq)

-- Induction over a plan from its leaves up.
theorem rec_inputs {motive : Plan → Prop} (step : ∀ o inputs, (∀ p ∈ inputs, motive p) → motive (node o inputs)) :
    ∀ p, motive p
  | node o inputs => step o inputs fun p _ => rec_inputs step p

theorem mem_subplans_trans {p q t : Plan} (hq : q ∈ p.subplans) (ht : t ∈ q.subplans) : t ∈ p.subplans := by
  induction p using rec_inputs
  case step o inputs ih =>
    have hcases := hq
    rw [subplans, subplansAll_eq] at hcases
    rcases List.mem_cons.mp hcases with rfl | hcases
    · exact ht
    · have ⟨p, hp, hq⟩ := List.mem_flatMap.mp hcases
      exact mem_subplans_of_input hp (ih p hp hq)

end Plan

namespace Recovery

-- The database accepts the condition where the scan stands alone.
def accepts (r : Recovery Id) (scan : Scan) (condition : String) : Bool :=
  let sql := Occurrence.sql r.schema scan.table [[.verbatim condition true]] scan.aliasName
  match (r.backend.explain sql []).run with
  | .ok _ => true
  | .error _ => false

-- The predicates that stand for the accepted conditions.
def clausesOf (r : Recovery Id) (scan : Scan) : Clauses :=
  let accepted := scan.conditions.filter (r.accepts scan)
  if r.parsesPredicates then
    let scope : Scope := { schema := r.schema, table := scan.table, aliasName := scan.aliasName, bareLists := false }
    scope.clauses accepted
  else accepted.map fun condition => [.verbatim condition true]

-- The node with the alias stands for the scan.
structure Stands (r : Recovery Id) (scan : Scan) (node : String × Occurrence) : Prop where
  aliasName : node.1 = scan.aliasName
  table     : node.2.table = scan.table
  clauses   : node.2.clauses = r.clausesOf scan
  real      : node.2.isVirtual = false

end Recovery

-- The conditions that are to become joins.
def Plan.conditions (r : Recovery Id) (p : Plan) : List String :=
  p.joinTexts ++ (p.scans r.schema).flatMap fun scan => scan.conditions.filter (!r.accepts scan ·)

-- One side of an equality can mean the column: it has the alias as its qualifier, or no qualifier at all.
structure Names (s : Schema) (scans : List Scan) (side : Condition.JoinColumn) (x : Label) : Prop where
  qualifier : ∀ a, side.aliasName = some a → a = x.1
  column    : ∃ scan ∈ scans, scan.aliasName = x.1 ∧ s.column? scan.table side.column = some x.2

-- The condition is an equality of two columns and nothing else, and can mean these.
def Reads (s : Schema) (scans : List Scan) (condition : String) (x y : Label) : Prop :=
  ∃ left right, Condition.joinColumns? condition = some (left, right) ∧
    ((Names s scans left x ∧ Names s scans right y) ∨ (Names s scans left y ∧ Names s scans right x))

-- The condition qualifies both columns, if it is an equality of two.
def Qualified (condition : String) : Prop :=
  ∀ left right, Condition.joinColumns? condition = some (left, right) →
    left.aliasName.isSome ∧ right.aliasName.isSome

section Reading

variable {s : Schema} {scans scans' : List Scan} {side : Condition.JoinColumn} {condition : String}
  {x y x' y' : Label}

theorem Names.mono (h : Names s scans side x) (hsub : scans ⊆ scans') : Names s scans' side x where
  qualifier := h.qualifier
  column := by
    have ⟨scan, hscan, hcolumn⟩ := h.column
    exact ⟨scan, hsub hscan, hcolumn⟩

theorem Reads.mono (h : Reads s scans condition x y) (hsub : scans ⊆ scans') : Reads s scans' condition x y := by
  have ⟨left, right, hcolumns, hnames⟩ := h
  refine ⟨left, right, hcolumns, ?_⟩
  exact hnames.imp (And.imp (·.mono hsub) (·.mono hsub)) (And.imp (·.mono hsub) (·.mono hsub))

theorem Names.unique (h : Names s scans side x) (h' : Names s scans side y) (hside : side.aliasName.isSome)
    (hnodup : (scans.map Scan.aliasName).Nodup) : x = y := by
  have ⟨a, ha⟩ := Option.isSome_iff_exists.mp hside
  have ⟨scan, hscan, halias, hcolumn⟩ := h.column
  have ⟨scan', hscan', halias', hcolumn'⟩ := h'.column
  have hx := h.qualifier a ha
  have hy := h'.qualifier a ha
  have heq : scan = scan' := List.inj_on_of_nodup_map hnodup hscan hscan' (by rw [halias, halias', ← hx, hy])
  subst heq
  exact Prod.ext (hx.symm.trans hy) (Option.some.inj (hcolumn.symm.trans hcolumn'))

-- A condition that qualifies both columns has one meaning, up to its direction.
theorem Reads.unique (h : Reads s scans condition x y) (h' : Reads s scans condition x' y')
    (hq : Qualified condition) (hnodup : (scans.map Scan.aliasName).Nodup) : (x = x' ∧ y = y') ∨ (x = y' ∧ y = x') := by
  have ⟨left, right, hcolumns, hnames⟩ := h
  have ⟨left', right', hcolumns', hnames'⟩ := h'
  have heq := hcolumns.symm.trans hcolumns'
  cases heq
  have ⟨hleft, hright⟩ := hq left right hcolumns
  rcases hnames with ⟨hx, hy⟩ | ⟨hy, hx⟩ <;> rcases hnames' with ⟨hx', hy'⟩ | ⟨hy', hx'⟩
  · exact .inl ⟨hx.unique hx' hleft hnodup, hy.unique hy' hright hnodup⟩
  · exact .inr ⟨hx.unique hy' hleft hnodup, hy.unique hx' hright hnodup⟩
  · exact .inr ⟨hx.unique hy' hright hnodup, hy.unique hx' hleft hnodup⟩
  · exact .inl ⟨hx.unique hx' hright hnodup, hy.unique hy' hleft hnodup⟩

end Reading

end Subplans
