import Subplans.Proofs.Answers
import Subplans.Proofs.Recovery.Contents

/-!
What recovery can come to, whatever the database answers.

`ScanRun` lists what a scan can come to, and `NodeRun` what a node can come to with what its inputs come to. What holds
at every node by then holds of every plan (`always_recoverBelow`).
-/

namespace Subplans

open Outcome

namespace Scan

-- Conditions as the planner printed them.
def verbatim (conditions : List String) : Clauses :=
  conditions.map fun condition => [.verbatim condition true]

-- The statement that a scan asks about conditions.
def sql (s : Schema) (scan : Scan) (conditions : List String) : String :=
  Occurrence.sql s scan.table (verbatim conditions) scan.aliasName

-- The node that a scan becomes.
def node (scan : Scan) (clauses : Clauses) (cardinality : Float) : Occurrence where
  table := scan.table
  cardinality := cardinality
  clauses := clauses
  isVirtual := false

end Scan

namespace Recovery

variable {m : Type → Type} {r : Recovery m} {A : String → Except BackendError Explain → Prop}

section Scan

variable (s : Schema) (A : String → Except BackendError Explain → Prop) (scan : Scan)

-- How conditions are parted: into those that are accepted alone, and those that are refused or take too long.
inductive Judged : (conditions accepted orphaned : List String) → Prop
  | nil : Judged [] [] []
  | accept {condition rest accepted orphaned explain} : A (scan.sql s [condition]) (.ok explain) →
    Judged rest accepted orphaned → Judged (condition :: rest) (condition :: accepted) orphaned
  | orphan {condition rest accepted orphaned e} : A (scan.sql s [condition]) (.error e) → e.isSoft = true →
    Judged rest accepted orphaned → Judged (condition :: rest) accepted (condition :: orphaned)

inductive JudgeRun (conditions : List String) : Except RecoveryError (List String × List String) → Prop
  | judged {accepted orphaned} : Judged s A scan conditions accepted orphaned →
    JudgeRun conditions (.ok (accepted, orphaned))
  | lost {condition e} : condition ∈ conditions → A (scan.sql s [condition]) (.error e) → e.isSoft = false →
    JudgeRun conditions (.error (.backend e))

-- The rows that are expected where all accepted conditions hold.
inductive Estimated (accepted : List String) : Float → Prop
  | whole : accepted = [] → Estimated accepted (s.table scan.table).cardinality
  | planned {explain} : accepted ≠ [] → A (scan.sql s accepted) (.ok explain) →
    Estimated accepted explain.plan.operation.rows
  | timeout : accepted ≠ [] → A (scan.sql s accepted) (.error .timeout) → Estimated accepted (-1)

inductive EstimateRun (accepted : List String) : Except BackendError Occurrence → Prop
  | estimated {cardinality} : Estimated s A scan accepted cardinality →
    EstimateRun accepted (.ok (scan.node (Scan.verbatim accepted) cardinality))
  | failed {e} : accepted ≠ [] → A (scan.sql s accepted) (.error e) → e ≠ .timeout → EstimateRun accepted (.error e)

end Scan

-- What the accepted conditions become.
def clausesFor (r : Recovery m) (scan : Scan) (accepted : List String) : Clauses :=
  let scope : Scope := { schema := r.schema, table := scan.table, aliasName := scan.aliasName, bareLists := false }
  if r.parsesPredicates then scope.clauses accepted else Scan.verbatim accepted

-- What is recovered from a scan.
def scanned (r : Recovery m) (scan : Scan) (accepted orphaned : List String) (cardinality : Float) : Recovered :=
  let node := scan.node (r.clausesFor scan accepted) cardinality
  let query := (QueryGraph.empty.add node scan.aliasName).2
  {
    subplans := if orphaned.isEmpty then [query] else []
    query := some query
    orphaned
    instances := [(scan.aliasName, node)]
  }

-- What a scan can come to.
inductive ScanRun (r : Recovery m) (A : String → Except BackendError Explain → Prop) (scan : Scan) :
    Except RecoveryError Recovered → Prop
  | found {accepted orphaned cardinality} : Judged r.schema A scan scan.conditions accepted orphaned →
    Estimated r.schema A scan accepted cardinality → ScanRun r A scan (.ok (r.scanned scan accepted orphaned cardinality))
  | lost {condition e} : condition ∈ scan.conditions → A (scan.sql r.schema [condition]) (.error e) →
    e.isSoft = false → ScanRun r A scan (.error (.backend e))
  | failed {accepted orphaned e} : Judged r.schema A scan scan.conditions accepted orphaned → accepted ≠ [] →
    A (scan.sql r.schema accepted) (.error e) → e ≠ .timeout → ScanRun r A scan (.error (.backend e))

section Scan

variable [Monad m] [LawfulMonad m] {s : Schema} {scan : Scan}

theorem always_judge (hA : r.backend.Answers A) (conditions : List String) :
    Always (JudgeRun r.schema A scan conditions) (r.judge scan.table scan.aliasName conditions) := by
  induction conditions
  case nil => exact always_pure (.judged .nil)
  case cons condition rest ih =>
    rw [judge]
    refine always_ask hA fun answer hanswer => ?_
    have hanswer : A (scan.sql r.schema [condition]) answer := hanswer
    have later : ∀ e, JudgeRun r.schema A scan rest (.error e) →
        JudgeRun r.schema A scan (condition :: rest) (.error e) := by
      rintro _ (_ | ⟨hmem, hlost, hhard⟩)
      exact .lost (List.mem_cons_of_mem _ hmem) hlost hhard
    split
    case h_1 => exact ih.bind (fun _ (.judged h) => always_pure (.judged (.accept hanswer h))) later
    case h_2 => exact ih.bind (fun _ (.judged h) => always_pure (.judged (.orphan hanswer rfl h))) later
    case h_3 => exact ih.bind (fun _ (.judged h) => always_pure (.judged (.orphan hanswer rfl h))) later
    case h_4 e hrejected htimeout _ =>
      have hhard : e.isSoft = false := by
        unfold BackendError.isSoft
        split <;> simp_all
      exact always_throw (.lost List.mem_cons_self hanswer hhard)

theorem always_occurrence {b : Backend m} (hA : b.Answers A) (accepted : List String) :
    Always (EstimateRun s A scan accepted) (b.occurrence s scan.table (Scan.verbatim accepted) scan.aliasName) := by
  rw [Backend.occurrence]
  dsimp only
  split
  case isTrue hempty =>
    have hempty : accepted = [] := by simpa [Scan.verbatim] using hempty
    exact always_pure (.estimated (.whole hempty))
  case isFalse hne =>
    have hne : accepted ≠ [] := by simpa [Scan.verbatim] using hne
    refine always_ask hA fun answer hanswer => ?_
    split
    case h_1 => exact always_pure (.estimated (.planned hne hanswer))
    case h_2 => exact always_pure (.estimated (.timeout hne hanswer))
    case h_3 htimeout => exact always_throw (.failed hne hanswer htimeout)

theorem always_scan (hA : r.backend.Answers A) (scan : Scan) :
    Always (ScanRun r A scan) (r.scan scan.table scan.aliasName scan.conditions) := by
  rw [Recovery.scan]
  refine (always_judge hA scan.conditions).bind (fun (accepted, orphaned) (.judged hjudged) => ?_) ?_
  case refine_2 =>
    rintro _ (_ | ⟨hmem, hlost, hhard⟩)
    exact .lost hmem hlost hhard
  case refine_1 =>
    let P : Except RecoveryError Occurrence → Prop
      | .ok found => EstimateRun r.schema A scan accepted (.ok found)
      | .error e => ScanRun r A scan (.error e)
    have hestimated : Always P
        ((r.backend.occurrence r.schema scan.table (Scan.verbatim accepted) scan.aliasName).adapt .backend) := by
      refine (always_occurrence hA accepted).adapt fun outcome h => ?_
      cases h
      case estimated h => exact .estimated h
      case failed hne hanswer htimeout => exact .failed hjudged hne hanswer htimeout
    refine hestimated.bind (fun found h => ?_) fun _ => id
    cases h
    case estimated cardinality hcardinality =>
    have hrun : ScanRun r A scan (.ok (r.scanned scan accepted orphaned cardinality)) := .found hjudged hcardinality
    unfold scanned clausesFor at hrun
    split at hrun
    case isTrue hparses =>
      dsimp only
      rw [if_pos hparses]
      exact always_pure hrun
    case isFalse hparses =>
      dsimp only
      rw [if_neg hparses]
      exact always_pure hrun

end Scan

-- What is recovered where a scan has something below it.
def beside (parts : List Recovered) (scanned : Recovered) : Recovered :=
  let orphaned := scanned.orphaned ++ (gather parts).orphaned
  { scanned with orphaned, subplans := if orphaned.isEmpty then scanned.subplans else [] }

-- The query of the only input.
def handOn (parts : List Recovered) (query : Option QueryGraph) : Recovered :=
  { gather parts with query }

-- There is no query, and so no place for conditions.
def giveUp (parts : List Recovered) : Recovered :=
  { gather parts with orphaned := [] }

-- What a node can come to, where `Q` says what its inputs come to.
inductive NodeRun (r : Recovery m) (A : String → Except BackendError Explain → Prop)
    (Q : Plan → Except RecoveryError Recovered → Prop) (o : Operation) (inputs : List Plan) :
    Except RecoveryError Recovered → Prop
  | fault {e} : (∀ e', e ≠ .backend e') → NodeRun r A Q o inputs (.error e)
  | input {p e} : p ∈ inputs → Q p (.error e) → NodeRun r A Q o inputs (.error e)
  | unread : o.operator? = some .bitmapHeapScan → NodeRun r A Q o inputs (.ok {})
  | heap {scan outcome} : o.operator? = some .bitmapHeapScan →
    Scan.ofNode? r.schema .bitmapHeapScan o inputs = some scan → ScanRun r A scan outcome → NodeRun r A Q o inputs outcome
  | none {parts} : List.Forall₂ (fun p part => Q p (.ok part)) inputs parts → NodeRun r A Q o inputs (.ok (giveUp parts))
  | passing {operator first rest} : o.operator? = some operator → operator.category = .passing →
    List.Forall₂ (fun p part => Q p (.ok part)) inputs (first :: rest) →
    NodeRun r A Q o inputs (.ok (handOn (first :: rest) first.query))
  | join {operator left right first second} : o.operator? = some operator → operator.category = .join →
    o.joinType = some "Inner" → List.Forall₂ (fun p part => Q p (.ok part)) inputs [left, right] →
    left.query = some first → right.query = some second →
    NodeRun r A Q o inputs (.ok (innerJoin r.schema o left right first second))
  | scan {operator parts scan outcome} : o.operator? = some operator → operator.category = .scan →
    List.Forall₂ (fun p part => Q p (.ok part)) inputs parts → Scan.ofNode? r.schema operator o inputs = some scan →
    ScanRun r A scan outcome → NodeRun r A Q o inputs (outcome.map (beside parts))

section Plan

variable {Q : Plan → Except RecoveryError Recovered → Prop} {depth : Nat} {o : Operation}
  {inputs : List Plan} {operator : Operator} {parts : List Recovered}

-- To find out what a node scans nobody is asked.
theorem scanTarget_fault {s : Schema} {e : RecoveryError} (h : scanTarget s operator o = .error e)
    (e' : BackendError) : e ≠ .backend e' := by
  unfold scanTarget at h
  grind

theorem indexConditions_fault {s : Schema} {table : Nat} {aliasName : String} {e : RecoveryError}
    (h : indexConditions s table aliasName o = .error e) (e' : BackendError) : e ≠ .backend e' := by
  rcases bind_eq_error.mp h with h | ⟨⟨indexTable, _⟩, _, h⟩
  case inl => exact scanTarget_fault h e'
  case inr =>
    dsimp only at h
    split at h
    case isTrue =>
      cases h
      nofun
    case isFalse => cases h

theorem heapTarget_fault {s : Schema} {operations : List Operation} {e : RecoveryError}
    (h : heapTarget s o operations = .error e) (e' : BackendError) : e ≠ .backend e' := by
  rcases bind_eq_error.mp h with h | ⟨_, _, h⟩
  case inl => exact scanTarget_fault h e'
  case inr =>
    rcases bind_eq_error.mp h with h | ⟨_, _, h⟩
    case inl =>
      have ⟨_, _, h⟩ := mapM_error h
      exact indexConditions_fault h e'
    case inr => cases h

theorem nodeRun_join (ho : o.operator? = some operator) (hcategory : operator.category = .join)
    (hparts : List.Forall₂ (fun p part => Q p (.ok part)) inputs parts) :
    NodeRun r A Q o inputs (join r.schema operator o parts) := by
  unfold join
  split
  case h_1 => exact .fault nofun
  case h_2 htype =>
    split
    case h_1 left right =>
      split
      case h_1 first second hleft hright => exact .join ho hcategory htype hparts hleft hright
      case h_2 => exact .none hparts
    case h_2 => exact .fault nofun
  case h_3 => exact .none hparts

variable [Monad m] [LawfulMonad m]

theorem always_heapScan (hA : r.backend.Answers A) (ho : o.operator? = some .bitmapHeapScan) :
    Always (NodeRun r A Q o inputs) (r.heapScan o inputs) := by
  unfold heapScan
  split
  case h_1 => exact always_throw (.fault nofun)
  case h_2 => exact always_pure (.unread ho)
  case h_3 => exact always_throw (.fault nofun)
  case h_4 operations _ hsource =>
    cases htarget : heapTarget r.schema o operations
    case error e => exact always_throw_bind (.fault (heapTarget_fault htarget))
    case ok target =>
      let scan : Scan := { aliasName := target.2.1, table := target.1, conditions := target.2.2 }
      have hscan : Scan.ofNode? r.schema .bitmapHeapScan o inputs = some scan :=
        Scan.ofNode?_of_heapTarget hsource htarget
      rw [liftM_ok_bind]
      exact (always_scan hA scan).mono fun _ => NodeRun.heap ho hscan

theorem always_recoverAll (h : ∀ p ∈ inputs, Always (Q p) (r.recoverBelow depth p)) :
    Always (fun
      | .ok parts => List.Forall₂ (fun p part => Q p (.ok part)) inputs parts
      | .error e => ∃ p ∈ inputs, Q p (.error e)) (r.recoverAll depth inputs) := by
  induction inputs
  case nil => exact always_pure .nil
  case cons p rest ih =>
    rw [recoverAll]
    have hrest := ih fun q hq => h q (List.mem_cons_of_mem p hq)
    refine (h p List.mem_cons_self).bind (fun first hfirst => ?_) fun e he => ⟨p, List.mem_cons_self, he⟩
    refine hrest.bind (fun parts hparts => always_pure (.cons hfirst hparts)) ?_
    exact fun e ⟨q, hq, he⟩ => ⟨q, List.mem_cons_of_mem p hq, he⟩

theorem always_combine (hA : r.backend.Answers A) (ho : o.operator? = some operator)
    (hne : operator ≠ .bitmapHeapScan) (hparts : List.Forall₂ (fun p part => Q p (.ok part)) inputs parts) :
    Always (NodeRun r A Q o inputs) (r.combine operator o parts) := by
  unfold combine
  dsimp only
  split
  case isTrue => exact always_pure (.none hparts)
  case isFalse =>
    split
    case h_1 => exact always_throw (.fault nofun)
    case h_2 => exact always_pure (.none hparts)
    case h_3 hcategory =>
      split
      case h_1 => exact always_throw (.fault nofun)
      case h_2 => exact always_pure (.passing ho hcategory hparts)
    case h_4 hcategory => exact always_liftM (nodeRun_join ho hcategory hparts)
    case h_5 hcategory =>
      cases htarget : scanTarget r.schema operator o
      case error => exact always_throw_bind (.fault (scanTarget_fault htarget))
      case ok target =>
        let scan : Scan := ⟨target.2, target.1, scanConditions r.schema o target.1 target.2⟩
        have hscan : Scan.ofNode? r.schema operator o inputs = some scan := Scan.ofNode?_of_scanTarget hne htarget
        rw [liftM_ok_bind]
        refine (always_scan hA scan).bind (fun found hfound => ?_) fun e he => ?_
        · exact always_pure (NodeRun.scan ho hcategory hparts hscan hfound)
        · exact NodeRun.scan ho hcategory hparts hscan he

-- What follows at every node from the same for its inputs holds of every plan.
theorem always_recoverBelow (hA : r.backend.Answers A)
    (hnode : ∀ o inputs outcome, NodeRun r A Q o inputs outcome → Q (.node o inputs) outcome) (p : Plan) (depth : Nat) :
    Always (Q p) (r.recoverBelow depth p) := by
  induction p using Plan.rec_inputs generalizing depth
  case step o inputs ih =>
    have hfault : ∀ e, (∀ e', e ≠ .backend e') → Q (.node o inputs) (.error e) :=
      fun e he => hnode o inputs _ (.fault he)
    rw [recoverBelow]
    split
    case isTrue => exact always_throw_bind (hfault _ nofun)
    case isFalse =>
    split
    case h_1 => exact always_throw (hfault _ nofun)
    case h_2 operator ho =>
      split
      case isTrue hheap =>
        have ho : o.operator? = some .bitmapHeapScan := beq_iff_eq.mp hheap ▸ ho
        exact (always_heapScan hA ho).mono (hnode o inputs)
      case isFalse hne =>
        split
        case isTrue => exact always_throw (hfault _ nofun)
        case isFalse =>
          refine (always_recoverAll fun p hp => ih p hp (depth + 1)).bind (fun parts hparts => ?_) ?_
          · exact (always_combine hA ho (by simpa using hne) hparts).mono (hnode o inputs)
          · exact fun e ⟨p, hp, he⟩ => hnode o inputs _ (.input hp he)

end Plan

end Recovery

end Subplans
