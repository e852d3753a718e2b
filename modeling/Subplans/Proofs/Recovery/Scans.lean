import Subplans.Proofs.Outcome
import Subplans.Proofs.Recovery.Contents

/-!
Scans become queries of one node.
-/

namespace Subplans

open Closure Outcome QueryGraph Relation

variable {r : Recovery Id} {scan : Scan} {s : Schema} {o : Occurrence} {a : String}

-- The query of one table asks for no equalities.
theorem QueryGraph.means_single (ho : o.isVirtual = false) (ha : ∀ k, a ≠ numbered k) :
    Means s (empty.add o a).2 fun _ _ => False where
  tidy := Tidy.empty.add rfl
  named := named_empty.add (by simp [ho, ha])
  support _ _ := False.elim
  forces p q hp hq := by
    have hwf : (empty.add o a).2.WellFormed := WellFormed.empty.add rfl
    have hnone : ∀ p q, ¬(empty.add o a).2.Relates s p q := by
      rintro p q ⟨x, ⟨e, he⟩, -⟩
      simp [add, empty, edge?] at he
    rw [Forces, iff_eq hnone, iff_eq fun _ _ => id]
    refine ⟨fun h => h ▸ rfl, fun h => ?_⟩
    rw [← slotOf_label hwf hp, h, slotOf_label hwf hq]

theorem QueryGraph.occurrences_single (ho : o.isVirtual = false) : (empty.add o a).2.occurrences = [(a, o)] := by
  have hreal : (empty.add o a).2.realNodes = _ := realNodes_add WellFormed.empty.indexed
  rw [occurrences, hreal]
  simp [ho, empty, realNodes, aliasName_add, node, node?_add]

namespace Recovery

theorem judge_eq_pure {conditions accepted orphaned : List String}
    (h : r.judge scan.table scan.aliasName conditions = pure (accepted, orphaned)) :
    accepted = conditions.filter (r.accepts scan) ∧ orphaned = conditions.filter (!r.accepts scan ·) := by
  induction conditions generalizing accepted orphaned
  case nil =>
    cases pure_inj.mp h
    exact ⟨rfl, rfl⟩
  case cons condition rest ih =>
    rw [judge] at h
    have ⟨answer, hanswer, h⟩ := bind_eq_pure.mp h
    have hanswer : (r.backend.explain (Occurrence.sql r.schema scan.table [[.verbatim condition true]]
        scan.aliasName) []).run = answer := pure_inj.mp hanswer
    split at h
    case h_1 =>
      have ⟨(acc, orph), hrest, h⟩ := bind_eq_pure.mp h
      cases pure_inj.mp h
      have ⟨ha, ho⟩ := ih hrest
      have haccepts : r.accepts scan condition = true := by simp [accepts, hanswer]
      simp [haccepts, ha, ho]
    case h_2 | h_3 =>
      have ⟨(acc, orph), hrest, h⟩ := bind_eq_pure.mp h
      cases pure_inj.mp h
      have ⟨ha, ho⟩ := ih hrest
      have haccepts : r.accepts scan condition = false := by simp [accepts, hanswer]
      simp [haccepts, ha, ho]
    case h_4 => cases h

end Recovery

theorem Backend.occurrence_eq_pure {b : Backend Id} {table : Nat} {clauses : Clauses}
    (h : b.occurrence s table clauses a = pure o) :
    o.table = table ∧ o.clauses = clauses ∧ o.isVirtual = false := by
  unfold Backend.occurrence at h
  split at h
  case isTrue =>
    cases pure_inj.mp h
    exact ⟨rfl, rfl, rfl⟩
  case isFalse =>
    have ⟨answer, _, h⟩ := bind_eq_pure.mp h
    split at h
    case h_1 | h_2 =>
      cases pure_inj.mp h
      exact ⟨rfl, rfl, rfl⟩
    case h_3 => cases h

namespace Recovery

-- What is found for a scan.
structure Scanned (r : Recovery Id) (scan : Scan) (found : Recovered) (o : Occurrence) : Prop where
  query    : found.query = some (QueryGraph.empty.add o scan.aliasName).2
  stands   : r.Stands scan (scan.aliasName, o)
  orphaned : found.orphaned = scan.conditions.filter (!r.accepts scan ·)
  subplans : found.subplans = if found.orphaned.isEmpty then found.query.toList else []

theorem scan_eq_pure {found : Recovered} (h : r.scan scan.table scan.aliasName scan.conditions = pure found) :
    ∃ o, Scanned r scan found o := by
  unfold Recovery.scan at h
  have ⟨(accepted, orphaned), hjudge, h⟩ := bind_eq_pure.mp h
  have ⟨haccepted, horphaned⟩ := judge_eq_pure hjudge
  have ⟨o, ho, h⟩ := bind_eq_pure.mp h
  have ⟨htable, hclauses, hvirtual⟩ := Backend.occurrence_eq_pure (adapt_eq_pure.mp ho)
  cases pure_inj.mp h
  refine ⟨_, rfl, ⟨rfl, ?_, ?_, ?_⟩, horphaned, ?_⟩
  case refine_1 => split <;> exact htable
  case refine_2 =>
    rw [clausesOf, ← haccepted]
    split
    case isTrue => rfl
    case isFalse => exact hclauses
  case refine_3 => split <;> exact hvirtual
  case refine_4 => split <;> rfl

end Recovery

end Subplans
