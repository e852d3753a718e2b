import Subplans.Proofs.Recovery.Faithful
import Subplans.Proofs.Recovery.Runs

/-!
Refused statements and a recovery.

A database that never fails answers each statement with a plan, a refusal or a timeout. A condition that is refused or
takes too long becomes an orphan, and a scan whose rows take too long to estimate has `-1` of them. There is one refusal
that ends the whole recovery: that of the accepted conditions of a scan together (`recover_refused`).
-/

namespace Subplans

open Outcome

-- The scan is made for the plan.
def Plan.Makes (s : Schema) (p : Plan) (scan : Scan) : Prop :=
  ∃ o inputs operator, node o inputs ∈ p.subplans ∧ o.operator? = some operator ∧ operator.category = .scan ∧
    Scan.ofNode? s operator o inputs = some scan

theorem Plan.Makes.of_input {s : Schema} {p : Plan} {o : Operation} {inputs : List Plan} {scan : Scan}
    (h : p.Makes s scan) (hp : p ∈ inputs) : (node o inputs).Makes s scan := by
  have ⟨o', inputs', operator, hmem, h⟩ := h
  exact ⟨o', inputs', operator, mem_subplans_of_input hp hmem, h⟩

theorem Assoc.mem_put {α β : Type} [BEq α] [LawfulBEq α] {k : α} {v : β} {entries : List (α × β)} {entry : α × β}
    (h : entry ∈ put k v entries) : entry = (k, v) ∨ entry ∈ entries := by
  induction entries
  case nil => simpa [put] using h
  case cons first rest ih =>
    rw [put] at h
    split at h
    case isTrue hk =>
      cases beq_iff_eq.mp hk
      rcases List.mem_cons.mp h with rfl | h
      · exact .inl rfl
      · exact .inr (List.mem_cons_of_mem _ h)
    case isFalse =>
      rcases List.mem_cons.mp h with rfl | h
      · exact .inr List.mem_cons_self
      · exact (ih h).imp_right (List.mem_cons_of_mem _)

namespace Recovery

variable {m : Type → Type} {r : Recovery m} {A : String → Except BackendError Explain → Prop}

-- The database refuses the accepted conditions of a scan together.
def RefusedTogether (s : Schema) (A : String → Except BackendError Explain → Prop) (scan : Scan) (message : String) :
    Prop :=
  ∃ accepted orphaned, Judged s A scan scan.conditions accepted orphaned ∧ accepted ≠ [] ∧
    A (scan.sql s accepted) (.error (.rejected message))

-- The node has the conditions that were accepted, and the rows that are expected for them.
def StandsFor (r : Recovery m) (A : String → Except BackendError Explain → Prop) (scan : Scan)
    (entry : String × Occurrence) : Prop :=
  ∃ accepted orphaned cardinality, Judged r.schema A scan scan.conditions accepted orphaned ∧
    Estimated r.schema A scan accepted cardinality ∧
    entry = (scan.aliasName, scan.node (r.clausesFor scan accepted) cardinality)

-- What a scan comes to: its node and the conditions that were not accepted, unless the others are refused together.
inductive Scanning (r : Recovery m) (A : String → Except BackendError Explain → Prop) (scan : Scan) :
    Except RecoveryError Recovered → Prop
  | found {accepted orphaned cardinality} : Judged r.schema A scan scan.conditions accepted orphaned →
    Estimated r.schema A scan accepted cardinality → Scanning r A scan (.ok (r.scanned scan accepted orphaned cardinality))
  | refused {message} : RefusedTogether r.schema A scan message →
    Scanning r A scan (.error (.backend (.rejected message)))

-- What a plan comes to: an error that no answer has caused, the refusal of some conditions together, or nodes of scans.
inductive Recovering (r : Recovery m) (A : String → Except BackendError Explain → Prop) (p : Plan) :
    Except RecoveryError Recovered → Prop
  | found {found} : (∀ entry ∈ found.instances, ∃ scan, p.Makes r.schema scan ∧ StandsFor r A scan entry) →
    Recovering r A p (.ok found)
  | fault {e} : (∀ e', e ≠ .backend e') → Recovering r A p (.error e)
  | refused {scan message} : p.Makes r.schema scan → RefusedTogether r.schema A scan message →
    Recovering r A p (.error (.backend (.rejected message)))

variable {s : Schema} {scan : Scan} {o : Operation} {inputs : List Plan} {parts : List Recovered}
  {left right : Recovered} {first second : QueryGraph} {entry : String × Occurrence}
  {outcome : Except RecoveryError Recovered}

theorem scanning_of_scanRun (hsoft : ∀ sql e, A sql (.error e) → e.isSoft = true) (h : ScanRun r A scan outcome) :
    Scanning r A scan outcome := by
  cases h
  case found hjudged hestimated => exact .found hjudged hestimated
  case lost hanswer hhard => exact absurd ((hsoft _ _ hanswer).symm.trans hhard) nofun
  case failed e hjudged hne hanswer htimeout =>
    have hsoft := hsoft _ _ hanswer
    cases e
    case rejected message => exact .refused ⟨_, _, hjudged, hne, hanswer⟩
    case timeout => exact absurd rfl htimeout
    all_goals cases hsoft

theorem mem_foldl_put {entries all : List (String × Occurrence)}
    (h : entry ∈ entries.foldl (fun all (a, o) => Assoc.put a o all) all) : entry ∈ all ∨ entry ∈ entries := by
  induction entries generalizing all
  case nil => exact .inl h
  case cons first rest ih =>
    rcases ih h with h | h
    · exact (Assoc.mem_put h).symm.imp_right fun heq : entry = first => heq ▸ List.mem_cons_self
    · exact .inr (List.mem_cons_of_mem _ h)

theorem mem_instances_gather (h : entry ∈ (gather parts).instances) : ∃ part ∈ parts, entry ∈ part.instances := by
  rcases mem_foldl_put h with h | h
  · cases h
  · exact List.mem_flatMap.mp h

theorem instances_innerJoin :
    (innerJoin s o left right first second).instances = (gather [left, right]).instances := by
  unfold innerJoin
  dsimp only
  split <;> rfl

theorem recovering_of_nodeRun (hsoft : ∀ sql e, A sql (.error e) → e.isSoft = true)
    (h : NodeRun r A (Recovering r A) o inputs outcome) : Recovering r A (.node o inputs) outcome := by
  -- A scan that is made for an input is made for the plan.
  have below : ∀ {parts}, List.Forall₂ (fun p part => Recovering r A p (.ok part)) inputs parts →
      ∀ entry ∈ (gather parts).instances, ∃ scan, (Plan.node o inputs).Makes r.schema scan ∧ StandsFor r A scan entry := by
    intro parts hparts entry hmem
    have ⟨part, hpart, hmem⟩ := mem_instances_gather hmem
    have ⟨p, hp, .found hfound⟩ := exists_of_forall₂ hparts part hpart
    have ⟨scan, hmakes, hstands⟩ := hfound entry hmem
    exact ⟨scan, hmakes.of_input hp, hstands⟩
  have scans : ∀ {operator scan outcome}, o.operator? = some operator → operator.category = .scan →
      Scan.ofNode? r.schema operator o inputs = some scan → ScanRun r A scan outcome →
      Recovering r A (.node o inputs) outcome := by
    intro operator scan outcome ho hc hscan hrun
    have hmakes : (Plan.node o inputs).Makes r.schema scan :=
      ⟨o, inputs, operator, Plan.mem_subplans_self _, ho, hc, hscan⟩
    cases scanning_of_scanRun hsoft hrun
    case found accepted orphaned cardinality hjudged hestimated =>
      refine .found fun entry hmem => ⟨scan, hmakes, accepted, orphaned, cardinality, hjudged, hestimated, ?_⟩
      simpa [scanned] using hmem
    case refused hrefused => exact .refused hmakes hrefused
  cases h
  case fault h => exact .fault h
  case input p e hp h =>
    cases h
    case fault h => exact .fault h
    case refused hmakes hrefused => exact .refused (hmakes.of_input hp) hrefused
  case unread => exact .found nofun
  case heap ho hscan hrun => exact scans ho rfl hscan hrun
  case none hparts => exact .found (below hparts)
  case passing hparts => exact .found (below hparts)
  case join _ hparts _ _ => exact .found (instances_innerJoin ▸ below hparts)
  case scan ho hc _ hscan hrun =>
    have h := scans ho hc hscan hrun
    cases h
    case found hfound => exact .found hfound
    case fault h => exact .fault h
    case refused hmakes hrefused => exact .refused hmakes hrefused

variable [Monad m] [LawfulMonad m]

-- Where each statement is answered with a plan, a refusal or a timeout, a scan loses just the conditions that are not
-- answered with a plan, and its rows are those that are expected for the others, `-1` where that takes too long. Nothing
-- ends the recovery but the refusal of the conditions that a scan has left, all of them accepted before.
theorem recover_refused (hA : r.backend.Answers A) (hsoft : ∀ sql e, A sql (.error e) → e.isSoft = true) (p : Plan) :
    Always (Recovering r A p) (r.recover p) ∧
    (∀ scan, Always (Scanning r A scan) (r.scan scan.table scan.aliasName scan.conditions)) ∧
    ((∀ scan message, p.Makes r.schema scan → ¬RefusedTogether r.schema A scan message) →
      Always (fun outcome => ∀ e, outcome ≠ .error (.backend e)) (r.recover p)) := by
  have hrecover : Always (Recovering r A p) (r.recover p) :=
    always_recoverBelow hA (fun _ _ _ h => recovering_of_nodeRun hsoft h) p 0
  refine ⟨hrecover, fun scan => (always_scan hA scan).mono fun _ h => scanning_of_scanRun hsoft h, fun hnone => ?_⟩
  refine hrecover.mono fun outcome h => ?_
  cases h
  case found => nofun
  case fault h => exact fun e he => h e (Except.error.inj he)
  case refused hmakes hrefused => exact absurd hrefused (hnone _ _ hmakes)

-- A database of the tables of the triangle that takes any statement with at most one condition.
def oneCondition : Recovery Id where
  schema := refusing.schema
  backend := {
    explain sql _ :=
      if Text.contains sql "\tAND " then .error (.rejected "too many conditions")
      else .ok { plan := .node { name := "Seq Scan" } [] }
    explainAnalyze _ _ := .error .timeout
    count _ := .error .timeout
    dataDirectory := .error .unavailable
  }

-- What the database answers.
def answered (r : Recovery Id) (sql : String) (answer : Except BackendError Explain) : Prop :=
  (r.backend.explain sql []).run = answer

theorem answers_oneCondition : oneCondition.backend.Answers oneCondition.answered :=
  fun _ _ => ⟨⟨_, rfl⟩, rfl⟩

theorem soft_oneCondition : ∀ sql e, oneCondition.answered sql (.error e) → e.isSoft = true := by
  intro sql e h
  unfold answered oneCondition at h
  dsimp only at h
  split at h
  case isTrue =>
    cases h
    rfl
  case isFalse => cases h

def filtered (condition : String) : Plan :=
  .node { name := "Seq Scan", relation := some "b", aliasName := some "y", filter := some condition } []

theorem recover_refused_filtered : oneCondition.backend.Answers oneCondition.answered ∧
    (∀ sql e, oneCondition.answered sql (.error e) → e.isSoft = true) ∧
    (∀ scan message, (filtered "(a_id > 1)").Makes oneCondition.schema scan →
      ¬RefusedTogether oneCondition.schema oneCondition.answered scan message) ∧
    (oneCondition.recover (filtered "(a_id > 1)")).run.isOk = true ∧
    Always (fun outcome => ∀ e, outcome ≠ .error (.backend e)) (oneCondition.recover (filtered "(a_id > 1)")) := by
  have hscan : ∀ scan, (filtered "(a_id > 1)").Makes oneCondition.schema scan → scan.conditions = ["(y.a_id > 1)"] := by
    rintro scan ⟨o, inputs, operator, hmem, ho, -, hscan⟩
    rw [filtered, Plan.subplans, Plan.subplansAll, List.mem_singleton] at hmem
    cases hmem
    cases (show _ = some Operator.seqScan by decide).symm.trans ho
    have hconditions : (Scan.ofNode? oneCondition.schema .seqScan (filtered "(a_id > 1)").operation []).map
        Scan.conditions = some ["(y.a_id > 1)"] := by decide +kernel
    exact Option.some.inj ((congrArg (Option.map Scan.conditions) hscan).symm.trans hconditions)
  have hnone : ∀ scan message, (filtered "(a_id > 1)").Makes oneCondition.schema scan →
      ¬RefusedTogether oneCondition.schema oneCondition.answered scan message := by
    rintro scan message hmakes ⟨accepted, orphaned, hjudged, hne, hrefused⟩
    rw [hscan scan hmakes] at hjudged
    -- One condition alone has been answered already.
    cases hjudged
    case accept hanswer hrest =>
      cases hrest
      cases hanswer.symm.trans hrefused
    case orphan hrest =>
      cases hrest
      exact hne rfl
  have hok : (oneCondition.recover (filtered "(a_id > 1)")).run.isOk = true := by decide +kernel
  exact ⟨answers_oneCondition, soft_oneCondition, hnone, hok,
    (recover_refused answers_oneCondition soft_oneCondition _).2.2 hnone⟩

-- Each of the conditions is accepted, but not both.
theorem not_soft_filtered :
    (∀ sql settings e, (oneCondition.backend.explain sql settings).run = .error e → e.isSoft = true) ∧
    ∃ message, oneCondition.recover (filtered "((a_id > 1) AND (a_id < 9))") = throw (.backend (.rejected message)) := by
  have h : (match (oneCondition.recover (filtered "((a_id > 1) AND (a_id < 9))")).run with
      | .error e => decide (e = .backend (.rejected "too many conditions"))
      | .ok _ => false) = true := by decide +kernel
  refine ⟨fun sql _ => soft_oneCondition sql, "too many conditions", ?_⟩
  generalize oneCondition.recover (filtered "((a_id > 1) AND (a_id < 9))") = x at h
  cases x
  case error e =>
    cases of_decide_eq_true h
    rfl
  case ok => cases h

end Recovery

end Subplans
