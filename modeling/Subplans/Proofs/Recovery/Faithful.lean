import Subplans.Proofs.Recovery.Accounts
import Subplans.Proofs.Schema.Equivalence

/-!
The queries recovered from a plan say what the plan says.

A query is emitted only for a node at which no condition waits (`emitted_of_recoverBelow`). So it scans what is
scanned below the node, and it forces the equalities that the conditions there state, and those that follow from
them (`subplans_faithful`).
-/

namespace Subplans

open Closure Outcome QueryGraph Relation

namespace Recovery

variable {r : Recovery Id} {depth : Nat} {p part : Plan} {o : Operation} {inputs : List Plan} {operator : Operator}
  {found : Recovered} {g : QueryGraph} {graphs : List QueryGraph} {E : Label → Label → Prop} {x y : Label}
  {d : SchemaDescription}

-- The query belongs to a node of the plan at which no condition waits.
structure Emitted (r : Recovery Id) (p : Plan) (g : QueryGraph) (part : Plan) : Prop where
  part_mem : part ∈ p.subplans
  scans    : (part.scans r.schema).Sublist (p.scans r.schema)
  found    : ∃ depth below, r.recoverBelow depth part = pure below ∧ below.query = some g ∧ below.orphaned = []

theorem Emitted.of_input (h : Emitted r p g part) (hp : p ∈ inputs) (ho : o.operator? = some operator)
    (hc : operator.category ≠ .scan) : Emitted r (.node o inputs) g part where
  part_mem := Plan.mem_subplans_of_input hp h.part_mem
  scans := h.scans.trans (Plan.scans_sublist ho hc hp)
  found := h.found

theorem emitted_self (h : r.recoverBelow depth p = pure found) (hg : found.query = some g)
    (ho : found.orphaned = []) : Emitted r p g p :=
  ⟨p.mem_subplans_self, .refl _, depth, found, h, hg, ho⟩

theorem emitted_of_recoverBelow (hp : p.Regular) (h : r.recoverBelow depth p = pure found)
    (hg : g ∈ found.subplans) : ∃ part, Emitted r p g part := by
  induction p using Plan.rec_inputs generalizing depth found
  case step o inputs ih =>
    have ⟨operator, ho, hcases⟩ := recoverBelow_eq_pure h
    by_cases hc : operator.category = .scan
    case pos =>
      have hin := (hp o inputs (Plan.mem_subplans_self _) operator ho).1 hc
      rcases scanned_of_recoverBelow h ho hc hin with ⟨-, hnone⟩ | ⟨scan, node, -, hscanned⟩
      · simp [hnone] at hg
      · rw [hscanned.subplans] at hg
        split at hg
        case isFalse => cases hg
        case isTrue hempty => exact ⟨_, emitted_self h (by simpa using hg) (List.isEmpty_iff.mp hempty)⟩
    case neg =>
      have hne : operator ≠ .bitmapHeapScan := fun h => hc (h ▸ rfl)
      have ⟨parts, hparts, hcombine⟩ := (hcases.resolve_left fun h => hne h.1).2
      -- A query from below belongs to the node below that has emitted it.
      have hbelow : g ∈ (gather parts).subplans → ∃ part, Emitted r (.node o inputs) g part := by
        intro hg
        have ⟨found, hfound, hg⟩ := List.mem_flatMap.mp hg
        have ⟨p, hmem, hrun⟩ := exists_of_forall₂ hparts found hfound
        have ⟨part, hemitted⟩ := ih p hmem (hp.input hmem) hrun hg
        exact ⟨part, hemitted.of_input hmem ho hc⟩
      have hcombined := combined_of_combine hcombine
      cases hcombined
      case none => exact hbelow hg
      case passing => exact hbelow hg
      case join left right first second _ heq hleft hright =>
        subst heq
        generalize hjoined : innerJoin r.schema o left right first second = found at *
        have hmerged : Merged r o left right first second found := hjoined ▸ merged_innerJoin
        cases hmerged
        case rejected hsub => exact hbelow (hsub ▸ hg)
        case merged hsub =>
          rw [hsub, List.mem_append] at hg
          cases hg
          case inl hg => exact hbelow hg
          case inr hg =>
            -- The join's own query is emitted if nothing waits.
            split at hg
            case isFalse => cases hg
            case isTrue hempty => exact ⟨_, emitted_self h (by simpa using hg) (List.isEmpty_iff.mp hempty)⟩
      case scan hscan _ _ => exact absurd hscan hc

-- The equalities as which the conditions of a plan can be read.
def equalities (r : Recovery Id) (p : Plan) (x y : Label) : Prop :=
  ∃ condition ∈ p.conditions r, Reads r.schema (p.scans r.schema) condition x y

-- The equalities are readings of the conditions, and leave out no condition and no reading that is not a choice.
structure Interprets (r : Recovery Id) (p : Plan) (E : Label → Label → Prop) : Prop where
  sound     : ∀ x y, E x y → r.equalities p x y
  complete  : ∀ condition ∈ p.conditions r, ∃ x y, E x y ∧ Reads r.schema (p.scans r.schema) condition x y
  qualified : ∀ condition ∈ p.conditions r, Qualified condition →
    ∀ x y, Reads r.schema (p.scans r.schema) condition x y → EqvGen E x y

theorem Interprets.closure (h : Interprets r p E) (hq : ∀ condition ∈ p.conditions r, Qualified condition) :
    EqvGen E x y ↔ EqvGen (r.equalities p) x y where
  mp := of_le fun _ _ hxy => .rel _ _ (h.sound _ _ hxy)
  mpr := of_le fun _ _ ⟨condition, hmem, hreads⟩ => h.qualified condition hmem (hq condition hmem) _ _ hreads

theorem Accounts.interprets (h : Accounts r p found g E) (hp : Definite r p) (ho : found.orphaned = []) :
    Interprets r p E := by
  have complete : ∀ condition ∈ p.conditions r, ∃ x y, E x y ∧ Reads r.schema (p.scans r.schema) condition x y :=
    fun condition hmem => (h.complete condition hmem).resolve_left (by simp [ho])
  refine ⟨h.sound, complete, fun condition hmem hq x y hreads => ?_⟩
  -- One of its readings has been used, and there is no other one up to direction.
  have ⟨x', y', hxy, hreads'⟩ := complete condition hmem
  rcases hreads.unique hreads' hq hp.nodup with ⟨rfl, rfl⟩ | ⟨rfl, rfl⟩
  · exact .rel _ _ hxy
  · exact .symm _ _ (.rel _ _ hxy)

-- The query says what the plan says.
structure Faithful (r : Recovery Id) (p : Plan) (g : QueryGraph) : Prop where
  nodes     : List.Forall₂ r.Stands (p.scans r.schema) g.occurrences
  forces    : ∃ E, Interprets r p E ∧
    ∀ u v, g.Real u → g.Real v → (g.Forces r.schema u v ↔ EqvGen E (g.label u) (g.label v))
  qualified : (∀ condition ∈ p.conditions r, Qualified condition) →
    ∀ u v, g.Real u → g.Real v → (g.Forces r.schema u v ↔ EqvGen (r.equalities p) (g.label u) (g.label v))

theorem Accounts.faithful (h : Accounts r p found g E) (hp : Definite r p) (ho : found.orphaned = []) :
    Faithful r p g where
  nodes := h.nodes
  forces := ⟨E, h.interprets hp ho, h.means.forces⟩
  qualified hq u v hu hv := by rw [h.means.forces u v hu hv, (h.interprets hp ho).closure hq]

theorem Emitted.definite (h : Emitted r p g part) (hp : Definite r p) : Definite r part where
  regular o inputs hmem := hp.regular o inputs (Plan.mem_subplans_trans h.part_mem hmem)
  nodup := hp.nodup.sublist (h.scans.map _)
  names scan hscan := hp.names scan (h.scans.subset hscan)

-- Whatever the database answers, every query that is emitted belongs to a node of the plan and says what the plan
-- says below that node. Where a condition leaves out a qualifier, one of its readings is taken.
theorem subplans_faithful (hd : Schema.ofDescription d = .ok r.schema)
    (hk : ∀ key ∈ r.schema.keys, key.pairs.length = 1) (hp : Definite r p) (h : r.subplans p = pure graphs) :
    ∀ g ∈ graphs, ∃ part, Emitted r p g part ∧ Faithful r part g := by
  intro g hg
  have ⟨found, hfound, hgraphs⟩ := map_eq_pure.mp h
  subst hgraphs
  have ⟨part, hemitted⟩ := emitted_of_recoverBelow hp.regular hfound hg
  have ⟨depth, below, hbelow, hquery, horphaned⟩ := hemitted.found
  have hpart := hemitted.definite hp
  have ⟨E, haccounts⟩ := accounts_of_recoverBelow (Schema.loaded_of_ofDescription hd) hk hpart hbelow hquery
  exact ⟨part, hemitted, haccounts.faithful hpart horphaned⟩

-- A database that refuses every statement about the tables of the triangle.
def refusing : Recovery Id where
  schema := (Schema.ofDescription Schema.triangle).toOption.get (by decide +kernel)
  backend := {
    explain _ _ := .error (.rejected "")
    explainAnalyze _ _ := .error (.rejected "")
    count _ := .error (.rejected "")
    dataDirectory := .error .unavailable
  }
  parsesPredicates := false

-- For every row of a join of two tables rows of the third are looked up, on a condition that has to wait.
def lookup : Plan :=
  .node { name := "Nested Loop", joinType := some "Inner" } [
    .node { name := "Hash Join", joinType := some "Inner", hashCondition := some "(x.a_id = y.a_id)" } [
      .node { name := "Seq Scan", relation := some "c", aliasName := some "x" } [],
      .node { name := "Hash" } [.node { name := "Seq Scan", relation := some "b", aliasName := some "y" } []]],
    .node {
      name := "Index Scan"
      relation := some "a"
      aliasName := some "z"
      indexCondition := some "(id = y.a_id)"
    } []]

theorem definite_lookup : Definite refusing lookup where
  regular := by
    intro o inputs hmem operator ho
    simp only [lookup, Plan.subplans, Plan.subplansAll, List.append_nil, List.nil_append, List.cons_append,
      List.mem_cons, List.not_mem_nil, or_false, Plan.node.injEq] at hmem
    rcases hmem with ⟨rfl, rfl⟩ | ⟨rfl, rfl⟩ | ⟨rfl, rfl⟩ | ⟨rfl, rfl⟩ | ⟨rfl, rfl⟩ | ⟨rfl, rfl⟩
    all_goals
      cases ho
      exact ⟨by decide, by decide⟩
  nodup := by decide +kernel
  names scan hscan k hname := by
    have hfirst : ∀ scan ∈ lookup.scans refusing.schema, scan.aliasName.toList.head? ≠ some 'n' := by
      decide +kernel
    apply hfirst scan hscan
    simp [hname, numbered]

theorem qualified_lookup : ∀ condition ∈ lookup.conditions refusing, Qualified condition := by
  have h : ∀ condition ∈ lookup.conditions refusing, (Condition.joinColumns? condition).all
      (fun (left, right) => left.aliasName.isSome && right.aliasName.isSome) = true := by decide +kernel
  intro condition hmem left right hcolumns
  simpa [hcolumns] using h condition hmem

-- The nodes of a query that are not virtual, and the equalities that its edges state.
def summary (g : QueryGraph) : List String × List (Label × Label) :=
  (g.occurrences.map Prod.fst, (g.relations refusing.schema).map fun (p, q) => (g.label p, g.label q))

-- The join of two tables, and that of all three with the condition that had to wait.
def lookupSummaries : List (List String × List (Label × Label)) := [
  (["x"], []),
  (["y"], []),
  (["x", "y"], [(("x", ⟨2, 0⟩), ("y", ⟨1, 0⟩))]),
  (["x", "y", "z"], [(("x", ⟨2, 0⟩), ("y", ⟨1, 0⟩)), (("y", ⟨1, 0⟩), ("z", ⟨0, 0⟩))])]

theorem subplans_lookup : ∃ graphs, refusing.subplans lookup = pure graphs ∧ graphs.map summary = lookupSummaries := by
  have h : ((refusing.subplans lookup).run.toOption.map fun graphs => graphs.map summary) = some lookupSummaries := by
    decide +kernel
  cases hrun : (refusing.subplans lookup).run
  case error => simp [hrun, Except.toOption] at h
  case ok graphs => exact ⟨graphs, hrun, by simpa [hrun, Except.toOption] using h⟩

theorem subplans_faithful_lookup : Schema.ofDescription Schema.triangle = .ok refusing.schema ∧
    (∀ key ∈ refusing.schema.keys, key.pairs.length = 1) ∧ Definite refusing lookup ∧
    lookup.conditions refusing = ["(x.a_id = y.a_id)", "(z.id = y.a_id)"] ∧
    (∀ condition ∈ lookup.conditions refusing, Qualified condition) ∧
    ∃ graphs, refusing.subplans lookup = pure graphs ∧ graphs.map summary = lookupSummaries ∧
      ∀ g ∈ graphs, ∃ part, Emitted refusing lookup g part ∧ Faithful refusing part g := by
  have hd : Schema.ofDescription Schema.triangle = .ok refusing.schema := rfl
  have hk : ∀ key ∈ refusing.schema.keys, key.pairs.length = 1 := by decide +kernel
  have hconditions : lookup.conditions refusing = ["(x.a_id = y.a_id)", "(z.id = y.a_id)"] := by decide +kernel
  have ⟨graphs, h, hsummaries⟩ := subplans_lookup
  exact ⟨hd, hk, definite_lookup, hconditions, qualified_lookup, graphs, h, hsummaries,
    subplans_faithful hd hk definite_lookup h⟩

end Recovery

end Subplans
