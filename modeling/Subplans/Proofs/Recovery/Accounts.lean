import Subplans.Proofs.Recovery.Place
import Subplans.Proofs.Recovery.Steps

/-!
The queries of the nodes of a plan.

`Accounts` is what holds of the query of any node: its nodes that are not virtual are the scans below, and it
means the conditions that have been placed so far, while the others wait. Joins preserve it (`accounts_join`),
and so it holds wherever there is a query (`accounts_of_recoverBelow`, by induction over the plan).
-/

namespace Subplans

open Closure Outcome QueryGraph Relation

variable {r : Recovery Id} {depth : Nat} {p q : Plan} {o : Operation} {inputs : List Plan} {operator : Operator}
  {found left right : Recovered} {first second g : QueryGraph} {E F : Label → Label → Prop} {scan : Scan}

namespace Plan

variable {s : Schema}

theorem scans_of_scan (ho : o.operator? = some operator) (hc : operator.category = .scan)
    (hscan : Scan.ofNode? s operator o inputs = some scan) : (node o inputs).scans s = [scan] := by
  rw [scans, ho]
  simp [hc, hscan]

theorem scans_of_inner (ho : o.operator? = some operator) (hc : operator.category ≠ .scan) :
    (node o inputs).scans s = inputs.flatMap (scans s) := by
  rw [scans, ho]
  simp [hc, scansAll_eq]

theorem joinTexts_of_scan (ho : o.operator? = some operator) (hc : operator.category = .scan) :
    (node o inputs).joinTexts = [] := by
  rw [joinTexts, ho]
  simp [hc]

theorem joinTexts_of_join (ho : o.operator? = some operator) (hc : operator.category = .join) :
    (node o inputs).joinTexts = inputs.flatMap joinTexts ++ ownTexts o := by
  rw [joinTexts, ho]
  simp [hc, joinTextsAll_eq]

theorem joinTexts_of_passing (ho : o.operator? = some operator) (hc : operator.category = .passing) :
    (node o inputs).joinTexts = inputs.flatMap joinTexts := by
  rw [joinTexts, ho]
  simp [hc, joinTextsAll_eq]

theorem scans_sublist (ho : o.operator? = some operator) (hc : operator.category ≠ .scan) (hp : p ∈ inputs) :
    (p.scans s).Sublist ((node o inputs).scans s) := by
  rw [scans_of_inner ho hc, List.flatMap]
  exact List.sublist_flatten_of_mem (List.mem_map_of_mem hp)

end Plan

namespace Recovery

-- The conditions that a join has to place.
def pending (o : Operation) (left right : Recovered) : List String :=
  left.orphaned ++ right.orphaned ++ Plan.ownTexts o

-- What becomes of one of them.
def placing (r : Recovery Id) (left right : Recovered) (first second : QueryGraph) (condition : String) :
    JoinResolution :=
  placeCondition r.schema first second (orphanSide left right condition) condition

-- A join has a query unless one of its conditions is rejected.
inductive Merged (r : Recovery Id) (o : Operation) (left right : Recovered) (first second : QueryGraph)
    (found : Recovered) : Prop
  | rejected : found.query = none → found.subplans = (gather [left, right]).subplans →
    Merged r o left right first second found
  | merged {joins} :
    PlacedAll (placing r left right first second) (pending o left right) joins found.orphaned →
    found.query = some (merge r.schema first second joins) →
    found.subplans = (gather [left, right]).subplans ++
      (if found.orphaned.isEmpty then found.query.toList else []) →
    Merged r o left right first second found

theorem merged_innerJoin : Merged r o left right first second (innerJoin r.schema o left right first second) := by
  have hconditions : (gather [left, right]).orphaned ++ Plan.ownTexts o = pending o left right := by
    simp [gather, pending]
  unfold innerJoin
  rw [Plan.ownTexts_eq] at hconditions
  dsimp only
  split
  case h_1 => exact .rejected rfl rfl
  case h_2 joins orphaned h =>
    have hplaced : PlacedAll (placing r left right first second) (pending o left right) joins orphaned := by
      rw [← hconditions]
      exact placedAll_of_placeConditions h
    exact .merged hplaced rfl rfl

-- The query of a node: its nodes stand for the scans below, and it means equalities as which the conditions
-- below can be read, one at least for every condition that does not wait.
structure Accounts (r : Recovery Id) (p : Plan) (found : Recovered) (g : QueryGraph) (E : Label → Label → Prop) :
    Prop where
  means    : Means r.schema g E
  nodes    : List.Forall₂ r.Stands (p.scans r.schema) g.occurrences
  sound    : ∀ x y, E x y → ∃ condition ∈ p.conditions r, Reads r.schema (p.scans r.schema) condition x y
  complete : ∀ condition ∈ p.conditions r, condition ∈ found.orphaned ∨
    ∃ x y, E x y ∧ Reads r.schema (p.scans r.schema) condition x y
  waiting  : ∀ condition ∈ found.orphaned, condition ∈ p.conditions r

theorem Accounts.drawnFrom (h : Accounts r p found g E) : DrawnFrom r (p.scans r.schema) g :=
  fun _ hn => exists_of_forall₂ h.nodes _ (List.mem_map_of_mem hn)

theorem accounts_scan (ho : o.operator? = some operator) (hc : operator.category = .scan)
    (hscan : Scan.ofNode? r.schema operator o inputs = some scan) {node : Occurrence}
    (h : Scanned r scan found node) (hname : ∀ k, scan.aliasName ≠ numbered k) :
    Accounts r (.node o inputs) found (QueryGraph.empty.add node scan.aliasName).2 fun _ _ => False := by
  have hscans : (Plan.node o inputs).scans r.schema = [scan] := Plan.scans_of_scan ho hc hscan
  have hconditions : (Plan.node o inputs).conditions r = found.orphaned := by
    rw [Plan.conditions, Plan.joinTexts_of_scan ho hc, hscans, h.orphaned]
    simp
  constructor
  case means => exact means_single h.stands.real hname
  case nodes =>
    rw [hscans, occurrences_single h.stands.real]
    exact .cons h.stands .nil
  case sound => exact fun _ _ => False.elim
  case complete => exact fun condition hmem => .inl (hconditions ▸ hmem)
  case waiting => exact fun condition hmem => hconditions ▸ hmem

theorem accounts_passing (ho : o.operator? = some operator) (hc : operator.category = .passing)
    (h : Accounts r p left g E) :
    Accounts r (.node o [p]) { gather [left] with query := left.query } g E := by
  have hscans : (Plan.node o [p]).scans r.schema = p.scans r.schema := by
    simp [Plan.scans_of_inner ho (hc ▸ nofun)]
  have hconditions : (Plan.node o [p]).conditions r = p.conditions r := by
    rw [Plan.conditions, Plan.conditions, hscans, Plan.joinTexts_of_passing ho hc]
    simp
  have horphaned : (gather [left]).orphaned = left.orphaned := by simp [gather]
  exact {
    means := h.means
    nodes := hscans ▸ h.nodes
    sound := hconditions ▸ hscans ▸ h.sound
    complete := horphaned ▸ hconditions ▸ hscans ▸ h.complete
    waiting := horphaned ▸ hconditions ▸ h.waiting
  }

section Join

variable {joins : List EquivalenceJoin}

theorem scans_join (ho : o.operator? = some operator) (hc : operator.category = .join) :
    (Plan.node o [p, q]).scans r.schema = p.scans r.schema ++ q.scans r.schema := by
  simp [Plan.scans_of_inner ho (hc ▸ nofun)]

theorem mem_conditions_join (ho : o.operator? = some operator) (hc : operator.category = .join)
    {condition : String} : condition ∈ (Plan.node o [p, q]).conditions r ↔
      condition ∈ p.conditions r ∨ condition ∈ q.conditions r ∨ condition ∈ Plan.ownTexts o := by
  simp only [Plan.conditions, scans_join ho hc, Plan.joinTexts_of_join ho hc, List.flatMap_cons, List.flatMap_nil,
    List.flatMap_append, List.mem_append, List.append_nil]
  grind

-- The conditions that a join has to place are among those of the plan.
theorem mem_conditions_of_pending (hl : Accounts r p left first E) (hr : Accounts r q right second F)
    (ho : o.operator? = some operator) (hc : operator.category = .join) {condition : String}
    (h : condition ∈ pending o left right) : condition ∈ (Plan.node o [p, q]).conditions r := by
  simp only [pending, List.mem_append] at h
  rw [mem_conditions_join ho hc]
  rcases h with (h | h) | h
  · exact .inl (hl.waiting _ h)
  · exact .inr (.inl (hr.waiting _ h))
  · exact .inr (.inr h)

-- Different scans have different aliases, and so have the nodes that stand for them.
theorem apart_of_accounts (hl : Accounts r p left first E) (hr : Accounts r q right second F)
    (hnodup : ((p.scans r.schema ++ q.scans r.schema).map Scan.aliasName).Nodup) : Apart second first := by
  intro n hn m hm heq
  have ⟨scan, hscan, hstands⟩ := hr.drawnFrom n hn
  have ⟨scan', hscan', hstands'⟩ := hl.drawnFrom m hm
  rw [List.map_append] at hnodup
  have hdisjoint := (List.nodup_append.mp hnodup).2.2
  refine hdisjoint _ (List.mem_map_of_mem hscan') _ (List.mem_map_of_mem hscan) ?_
  rw [← hstands.aliasName, ← hstands'.aliasName]
  exact heq.symm

-- What a placed condition has become, and how it is read.
theorem reading_of_placing (hs : r.schema.Loaded) (hk : ∀ key ∈ r.schema.keys, key.pairs.length = 1)
    (hl : Accounts r p left first E) (hr : Accounts r q right second F) {condition : String} {j : EquivalenceJoin}
    (h : placing r left right first second condition = .join j) :
    ∃ c d, j.first ∈ first.realNodes ∧ j.second ∈ second.realNodes ∧ Walk (Steps r.schema) c j.connection d ∧
      Reads r.schema (p.scans r.schema ++ q.scans r.schema) condition (first.aliasName j.first, c)
        (second.aliasName j.second, d) := by
  have hdrawnl := hl.drawnFrom.mono (List.subset_append_left _ (q.scans r.schema))
  have hdrawnr := hr.drawnFrom.mono (List.subset_append_right (p.scans r.schema) _)
  have ⟨c, d, hfirst, hsecond, hconnection, hreads⟩ :=
    reads_of_placeCondition hl.means.tidy.wellFormed hr.means.tidy.wellFormed hdrawnl hdrawnr h
  exact ⟨c, d, hfirst, hsecond, walk_of_connection? hs hk hconnection, hreads⟩

theorem accounts_join (hs : r.schema.Loaded) (hk : ∀ key ∈ r.schema.keys, key.pairs.length = 1)
    (ho : o.operator? = some operator) (hc : operator.category = .join)
    (hnodup : (((Plan.node o [p, q]).scans r.schema).map Scan.aliasName).Nodup)
    (hl : Accounts r p left first E) (hr : Accounts r q right second F)
    (hplaced : PlacedAll (placing r left right first second) (pending o left right) joins found.orphaned) :
    Accounts r (.node o [p, q]) found (merge r.schema first second joins)
      (Either (Either E F) (JoinedLabels r.schema first second joins)) := by
  have hscans : (Plan.node o [p, q]).scans r.schema = p.scans r.schema ++ q.scans r.schema := scans_join ho hc
  -- What a condition can mean below one input it can mean below both.
  have hleft := List.subset_append_left (p.scans r.schema) (q.scans r.schema)
  have hright := List.subset_append_right (p.scans r.schema) (q.scans r.schema)
  have hjoins : ∀ j ∈ joins, j.first ∈ first.realNodes ∧ j.second ∈ second.realNodes ∧
      ∃ c d, Walk (Steps r.schema) c j.connection d := by
    intro j hj
    have ⟨condition, _, hplace⟩ := hplaced.origin j hj
    have ⟨c, d, hfirst, hsecond, hw, _⟩ := reading_of_placing hs hk hl hr hplace
    exact ⟨hfirst, hsecond, c, d, hw⟩
  have ⟨hmeans, hoccurrences⟩ := means_merge hl.means hr.means (apart_of_accounts hl hr (hscans ▸ hnodup)) hjoins
  constructor
  case means => exact hmeans
  case nodes =>
    rw [hoccurrences, hscans]
    exact List.rel_append hl.nodes hr.nodes
  case sound =>
    rw [hscans]
    rintro x y ((hxy | hxy) | ⟨j, hj, c, d, hw, rfl, rfl⟩)
    · have ⟨condition, hmem, hreads⟩ := hl.sound x y hxy
      exact ⟨condition, (mem_conditions_join ho hc).mpr (.inl hmem), hreads.mono hleft⟩
    · have ⟨condition, hmem, hreads⟩ := hr.sound x y hxy
      exact ⟨condition, (mem_conditions_join ho hc).mpr (.inr (.inl hmem)), hreads.mono hright⟩
    · have ⟨condition, hmem, hplace⟩ := hplaced.origin j hj
      have ⟨c', d', _, _, hw', hreads⟩ := reading_of_placing hs hk hl hr hplace
      -- The connection says between which columns it leads.
      have ⟨hcc, hdd⟩ := ends_unique hw hw'
      exact ⟨condition, mem_conditions_of_pending hl hr ho hc hmem, hcc ▸ hdd ▸ hreads⟩
  case complete =>
    rw [hscans]
    intro condition hmem
    -- A condition that has waited below is tried again, together with those of the join itself.
    have placed : condition ∈ pending o left right → condition ∈ found.orphaned ∨
        ∃ x y, Either (Either E F) (JoinedLabels r.schema first second joins) x y ∧
          Reads r.schema (p.scans r.schema ++ q.scans r.schema) condition x y := by
      intro hmem
      refine (hplaced.placed condition hmem).imp_right fun ⟨j, hj, hplace⟩ => ?_
      have ⟨c, d, _, _, hw, hreads⟩ := reading_of_placing hs hk hl hr hplace
      exact ⟨_, _, .inr ⟨j, hj, c, d, hw, rfl, rfl⟩, hreads⟩
    rcases (mem_conditions_join ho hc).mp hmem with hmem | hmem | hmem
    · rcases hl.complete condition hmem with hwait | ⟨x, y, hxy, hreads⟩
      · exact placed (by simp [pending, hwait])
      · exact .inr ⟨x, y, .inl (.inl hxy), hreads.mono hleft⟩
    · rcases hr.complete condition hmem with hwait | ⟨x, y, hxy, hreads⟩
      · exact placed (by simp [pending, hwait])
      · exact .inr ⟨x, y, .inl (.inr hxy), hreads.mono hright⟩
    · exact placed (by simp [pending, hmem])
  case waiting =>
    exact fun condition hmem => mem_conditions_of_pending hl hr ho hc (hplaced.rest condition hmem)

end Join

-- The conditions under which plans have one meaning: aliases tell scans apart, and none is one of those that
-- merging hands out.
structure Definite (r : Recovery Id) (p : Plan) : Prop where
  regular : p.Regular
  nodup   : ((p.scans r.schema).map Scan.aliasName).Nodup
  names   : ∀ scan ∈ p.scans r.schema, ∀ k, scan.aliasName ≠ numbered k

theorem Definite.input (h : Definite r (.node o inputs)) (ho : o.operator? = some operator)
    (hc : operator.category ≠ .scan) (hp : p ∈ inputs) : Definite r p where
  regular := h.regular.input hp
  nodup := h.nodup.sublist ((Plan.scans_sublist ho hc hp).map _)
  names scan hscan := h.names scan ((Plan.scans_sublist ho hc hp).subset hscan)

theorem accounts_of_recoverBelow (hs : r.schema.Loaded) (hk : ∀ key ∈ r.schema.keys, key.pairs.length = 1)
    (hp : Definite r p) (h : r.recoverBelow depth p = pure found) (hg : found.query = some g) :
    ∃ E, Accounts r p found g E := by
  induction p using Plan.rec_inputs generalizing depth found g
  case step o inputs ih =>
    have ⟨operator, ho, hcases⟩ := recoverBelow_eq_pure h
    by_cases hc : operator.category = .scan
    case pos =>
      have hin := (hp.regular o inputs (Plan.mem_subplans_self _) operator ho).1 hc
      rcases scanned_of_recoverBelow h ho hc hin with ⟨hnone, -⟩ | ⟨scan, node, hscan, hscanned⟩
      · simp [hnone] at hg
      · cases hscanned.query.symm.trans hg
        have hmem : scan ∈ (Plan.node o inputs).scans r.schema := by simp [Plan.scans_of_scan ho hc hscan]
        exact ⟨_, accounts_scan ho hc hscan hscanned (hp.names scan hmem)⟩
    case neg =>
      have hne : operator ≠ .bitmapHeapScan := fun h => hc (h ▸ rfl)
      have ⟨parts, hparts, hcombine⟩ := (hcases.resolve_left fun h => hne h.1).2
      have hcombined := combined_of_combine hcombine
      cases hcombined
      case none => cases hg
      -- Only the one input of the node can have been its source.
      case passing left rest hcategory heq =>
        have hlength := (hp.regular o inputs (Plan.mem_subplans_self _) operator ho).2 hcategory
        have ⟨p, hinputs⟩ := List.length_eq_one_iff.mp hlength
        subst heq hinputs
        have ⟨hleft, hrest⟩ := List.forall₂_cons.mp hparts
        cases hrest
        have hmem : p ∈ [p] := List.mem_singleton_self p
        have ⟨E, haccounts⟩ := ih p hmem (hp.input ho hc hmem) hleft hg
        exact ⟨E, accounts_passing ho hcategory haccounts⟩
      case join left right first second hcategory heq hleft hright =>
        subst heq
        cases hparts with | @cons p _ _ _ hrunl hparts =>
        cases hparts with | @cons q _ _ _ hrunr hparts =>
        cases hparts
        have hp₁ := hp.input ho hc (p := p) (by simp)
        have hp₂ := hp.input ho hc (p := q) (by simp)
        have ⟨E, hl⟩ := ih p (by simp) hp₁ hrunl hleft
        have ⟨F, hr⟩ := ih q (by simp) hp₂ hrunr hright
        have hmerged : Merged r o left right first second _ := merged_innerJoin
        cases hmerged
        case rejected hnone _ => simp [hnone] at hg
        case merged joins hplaced hquery _ =>
          cases hquery.symm.trans hg
          exact ⟨_, accounts_join hs hk ho hcategory hp.nodup hl hr hplaced⟩
      case scan hscan _ _ => exact absurd hscan hc

end Recovery

end Subplans
