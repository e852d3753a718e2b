import Subplans.Proofs.Recovery.Scans

/-!
What can happen at one node of a plan.
-/

namespace Subplans

open Outcome

namespace Recovery

variable {r : Recovery Id} {depth : Nat} {o : Operation} {inputs : List Plan} {operator : Operator}
  {parts : List Recovered} {found : Recovered}

theorem recoverAll_eq_pure (h : r.recoverAll depth inputs = pure parts) :
    List.Forall₂ (fun p part => r.recoverBelow depth p = pure part) inputs parts := by
  induction inputs generalizing parts
  case nil =>
    rw [recoverAll] at h
    cases pure_inj.mp h
    exact .nil
  case cons p rest ih =>
    rw [recoverAll] at h
    have ⟨first, hfirst, h⟩ := bind_eq_pure.mp h
    have ⟨others, hothers, h⟩ := bind_eq_pure.mp h
    cases pure_inj.mp h
    exact .cons hfirst (ih hothers)

-- A heap scan stands for itself, and any other node for what it makes of its inputs.
theorem recoverBelow_eq_pure (h : r.recoverBelow depth (.node o inputs) = pure found) :
    ∃ operator, o.operator? = some operator ∧
      ((operator = .bitmapHeapScan ∧ r.heapScan o inputs = pure found) ∨
      (operator ≠ .bitmapHeapScan ∧ ∃ parts,
        List.Forall₂ (fun p part => r.recoverBelow (depth + 1) p = pure part) inputs parts ∧
        r.combine operator o parts = pure found)) := by
  rw [recoverBelow] at h
  split at h
  case isTrue => cases h
  case isFalse =>
  split at h
  case h_1 => cases h
  case h_2 operator hoperator =>
    refine ⟨operator, hoperator, ?_⟩
    split at h
    case isTrue heq => exact .inl ⟨beq_iff_eq.mp heq, h⟩
    case isFalse hne =>
      split at h
      case isTrue => cases h
      case isFalse =>
        have ⟨parts, hparts, h⟩ := bind_eq_pure.mp h
        exact .inr ⟨by simpa using hne, parts, recoverAll_eq_pure hparts, h⟩

-- What a node makes of its inputs.
inductive Combined (r : Recovery Id) (operator : Operator) (o : Operation) (parts : List Recovered) :
    Recovered → Prop
  | none : Combined r operator o parts { gather parts with orphaned := [] }
  | passing {first rest} : operator.category = .passing → parts = first :: rest →
    Combined r operator o parts { gather parts with query := first.query }
  | join {left right first second} : operator.category = .join → parts = [left, right] →
    left.query = some first → right.query = some second →
    Combined r operator o parts (innerJoin r.schema o left right first second)
  | scan {table aliasName scanned} : operator.category = .scan →
    scanTarget r.schema operator o = .ok (table, aliasName) →
    r.scan table aliasName (scanConditions r.schema o table aliasName) = pure scanned →
    Combined r operator o parts { scanned with
      orphaned := scanned.orphaned ++ (gather parts).orphaned
      subplans := if (scanned.orphaned ++ (gather parts).orphaned).isEmpty then scanned.subplans else [] }

theorem combined_of_join (hoperator : operator.category = .join) (h : join r.schema operator o parts = .ok found) :
    Combined r operator o parts found := by
  unfold join at h
  split at h
  case h_1 => cases h
  case h_2 =>
    split at h
    case h_2 => cases h
    case h_1 left right =>
      split at h
      case h_1 hleft hright =>
        cases h
        exact .join hoperator rfl hleft hright
      case h_2 =>
        cases h
        exact .none
  case h_3 =>
    cases h
    exact .none

theorem combined_of_combine (h : r.combine operator o parts = pure found) : Combined r operator o parts found := by
  unfold combine at h
  dsimp only at h
  split at h
  case isTrue =>
    cases pure_inj.mp h
    exact .none
  case isFalse =>
    split at h
    case h_1 => cases h
    case h_2 =>
      cases pure_inj.mp h
      exact .none
    case h_3 hcategory =>
      split at h
      case h_1 => cases h
      case h_2 =>
        cases pure_inj.mp h
        exact .passing hcategory rfl
    case h_4 hcategory => exact combined_of_join hcategory (lift_eq_pure.mp h)
    case h_5 hcategory =>
      have ⟨(table, aliasName), htarget, h⟩ := bind_eq_pure.mp h
      have ⟨scanned, hscanned, h⟩ := bind_eq_pure.mp h
      cases pure_inj.mp h
      exact .scan hcategory (lift_eq_pure.mp htarget) hscanned

theorem heapScan_eq_pure (h : r.heapScan o inputs = pure found) :
    found = {} ∨ ∃ scan, Scan.ofNode? r.schema .bitmapHeapScan o inputs = some scan ∧
      r.scan scan.table scan.aliasName scan.conditions = pure found := by
  unfold heapScan at h
  split at h
  case h_1 => cases h
  case h_2 => exact .inl (pure_inj.mp h).symm
  case h_3 => cases h
  case h_4 operations _ hsource =>
    have ⟨(table, aliasName, conditions), htarget, h⟩ := bind_eq_pure.mp h
    have htarget := lift_eq_pure.mp htarget
    exact .inr ⟨⟨aliasName, table, conditions⟩, Scan.ofNode?_of_heapTarget hsource htarget, h⟩

-- A scan with nothing below it stands for one table, unless it combines bitmaps.
theorem scanned_of_recoverBelow (h : r.recoverBelow depth (.node o inputs) = pure found)
    (ho : o.operator? = some operator) (hc : operator.category = .scan)
    (hin : operator ≠ .bitmapHeapScan → inputs = []) :
    (found.query = none ∧ found.subplans = []) ∨
    ∃ scan node, Scan.ofNode? r.schema operator o inputs = some scan ∧ Scanned r scan found node := by
  have ⟨_, ho', hcases⟩ := recoverBelow_eq_pure h
  cases ho.symm.trans ho'
  rcases hcases with ⟨rfl, hheap⟩ | ⟨hne, parts, hparts, hcombine⟩
  · rcases heapScan_eq_pure hheap with rfl | ⟨scan, hnode, hscan⟩
    · exact .inl ⟨rfl, rfl⟩
    · have ⟨node, hscanned⟩ := scan_eq_pure hscan
      exact .inr ⟨scan, node, hnode, hscanned⟩
  · -- There are no inputs, so the node is what it scans.
    cases hin hne
    cases hparts
    have hcombined := combined_of_combine hcombine
    generalize hnone : ([] : List Recovered) = parts at hcombined
    cases hcombined
    case none =>
      cases hnone
      exact .inl ⟨rfl, rfl⟩
    case passing heq => simp [← hnone] at heq
    case join heq _ _ => simp [← hnone] at heq
    case scan table aliasName scanned _ htarget hscan =>
      cases hnone
      let scan : Scan := ⟨aliasName, table, scanConditions r.schema o table aliasName⟩
      have hscan : r.scan scan.table scan.aliasName scan.conditions = pure scanned := hscan
      have ⟨node, hscanned⟩ := scan_eq_pure hscan
      have hnode : Scan.ofNode? r.schema operator o [] = some scan := Scan.ofNode?_of_scanTarget hne htarget
      have hempty : (gather []).orphaned = [] := rfl
      refine .inr ⟨scan, node, hnode, hscanned.query, hscanned.stands, ?_, ?_⟩
      · rw [hempty, List.append_nil]
        exact hscanned.orphaned
      · rw [hempty, List.append_nil, hscanned.subplans]
        split <;> rfl

end Recovery

end Subplans
